/-
The cache breakpoints of a request (`prepare_system_with_caching`, `apply_tool_caching`, `apply_history_cache_breakpoint`
and `apply_in_turn_cache_breakpoint` of services/llm_service.py, as `_call_llm_with_retry` of agent/core.py calls them).

Each helper finds its own block and stamps it: the last tool, the system prompt, the tail of the history before the current
turn, the last result of a tool round.

- `stamps_sublist`: the markers of a request, in request order, are some of prefix, prefix, history and in-turn;
- `breakpoints_legal`: at most four markers, lifetimes that never increase, no block stamped twice, and the unmarked request
  comes back when the markers are removed.
-/
import Mathlib.Tactic
import Clawbolt.Core.Json
import Clawbolt.AgentLoop.Messages

namespace Clawbolt.AgentLoop

open Text (Str)
open History (AgentMessage)
open scoped List

/-! ## Lifetimes -/

/-- `CacheTTL` -/
inductive CacheTTL where
  | fiveMinutes
  | oneHour
deriving DecidableEq, Repr

/-- a `cache_control` dict: the type is always `ephemeral` -/
structure CacheControl where
  ttl : Option CacheTTL
deriving DecidableEq, Repr

/-- `_cache_control` -/
def cacheControl : CacheTTL → CacheControl
  | .oneHour => ⟨some .oneHour⟩
  | .fiveMinutes => ⟨none⟩

def CacheTTL.minutes : CacheTTL → ℕ
  | .fiveMinutes => 5
  | .oneHour => 60

/-- without a `ttl` a marker lives for five minutes -/
def CacheControl.lifetime (c : CacheControl) : ℕ := (c.ttl.getD .fiveMinutes).minutes

structure CacheSettings where
  llmCacheExtendedTtl : Bool
  llmCacheHistoryTtl : CacheTTL
  llmCacheInTurnTtl : CacheTTL

structure BreakpointTTLs where
  leading : CacheTTL
  history : CacheTTL
  inTurn : CacheTTL

/-- `_no_longer_than` -/
def noLongerThan (ttl ceiling : CacheTTL) : CacheTTL :=
  if ttl = .fiveMinutes ∨ ceiling = .fiveMinutes then .fiveMinutes else .oneHour

def breakpointTtls (settings : CacheSettings) : BreakpointTTLs :=
  let leading := if settings.llmCacheExtendedTtl then CacheTTL.oneHour else .fiveMinutes
  let history := noLongerThan settings.llmCacheHistoryTtl leading
  ⟨leading, history, noLongerThan settings.llmCacheInTurnTtl history⟩

@[simp]
theorem lifetime_cacheControl (ttl : CacheTTL) : (cacheControl ttl).lifetime = ttl.minutes := by
  cases ttl <;> rfl

theorem minutes_noLongerThan (ttl ceiling : CacheTTL) : (noLongerThan ttl ceiling).minutes ≤ ceiling.minutes := by
  cases ttl <;> cases ceiling <;> decide

/-- no later breakpoint outlives an earlier one -/
def BreakpointTTLs.Descending (t : BreakpointTTLs) : Prop :=
  t.history.minutes ≤ t.leading.minutes ∧ t.inTurn.minutes ≤ t.history.minutes

theorem descending_breakpointTtls (settings : CacheSettings) : (breakpointTtls settings).Descending :=
  ⟨minutes_noLongerThan _ _, minutes_noLongerThan _ _⟩

/-! ## Marked blocks -/

/-- a dict of the request, with its `cache_control` key when it has one -/
structure Marked (α : Type) where
  value : α
  cacheControl : Option CacheControl
deriving DecidableEq, Repr

section Marked
variable {α : Type}

def Marked.unmark (b : Marked α) : Marked α := { b with cacheControl := none }

def markers (l : List (Marked α)) : List CacheControl := l.filterMap Marked.cacheControl

/-- `blocks[-1] = {**blocks[-1], "cache_control": control}` -/
def stampLast (control : CacheControl) (l : List (Marked α)) : List (Marked α) :=
  match l.getLast? with
  | none => l
  | some b => l.dropLast ++ [{ b with cacheControl := some control }]

@[simp]
theorem stampLast_snoc (control : CacheControl) (l : List (Marked α)) (b : Marked α) :
    stampLast control (l ++ [b]) = l ++ [⟨b.value, some control⟩] := by
  simp [stampLast]

theorem markers_append (l m : List (Marked α)) : markers (l ++ m) = markers l ++ markers m := List.filterMap_append

theorem markers_stampLast (control : CacheControl) {l : List (Marked α)} (hl : l ≠ []) (hplain : markers l = []) :
    markers (stampLast control l) = [control] := by
  rcases List.eq_nil_or_concat l with rfl | ⟨init, b, rfl⟩
  · exact absurd rfl hl
  · rw [List.concat_eq_append, markers_append, List.append_eq_nil_iff] at hplain
    rw [List.concat_eq_append, stampLast_snoc, markers_append, hplain.1]
    rfl

theorem markers_unmark (l : List (Marked α)) : markers (l.map Marked.unmark) = [] := by
  rw [markers, List.filterMap_eq_nil_iff]
  intro b hb
  obtain ⟨a, -, rfl⟩ := List.mem_map.1 hb
  rfl

/-- the stamp is all that a stamped block has more -/
theorem unmark_stampLast (control : CacheControl) (l : List (Marked α)) :
    (stampLast control l).map Marked.unmark = l.map Marked.unmark := by
  rcases List.eq_nil_or_concat l with rfl | ⟨init, b, rfl⟩
  · rfl
  · rw [List.concat_eq_append, stampLast_snoc, List.map_append, List.map_append]
    rfl

end Marked

/-! ## Tools -/

/-- a tool as its schema is sent: the compacted schema of its parameters -/
structure ToolSchema where
  name : Str
  description : Str
  inputSchema : Json
deriving DecidableEq

/-- the list of schemas an agent holds: only the last may have a marker, from an earlier round -/
structure ToolSchemas where
  list : List (Marked ToolSchema)
  only_last : markers list.dropLast = []

/-- schemas as they are built -/
def ToolSchemas.fresh (tools : List ToolSchema) : ToolSchemas where
  list := tools.map (⟨·, none⟩)
  only_last := by
    rw [markers, List.filterMap_eq_nil_iff]
    intro b hb
    obtain ⟨a, -, rfl⟩ := List.mem_map.1 (List.dropLast_subset _ hb)
    rfl

/-- `_get_or_build_tool_schemas`: the list of an earlier round when the names are the same -/
def getOrBuildToolSchemas (tools : List ToolSchema) (cached : Option ToolSchemas) : Option ToolSchemas :=
  if tools = [] then none
  else match cached with
    | some schemas =>
      if schemas.list.map (·.value.name) = tools.map (·.name) then some schemas else some (ToolSchemas.fresh tools)
    | none => some (ToolSchemas.fresh tools)

theorem dropLast_stampLast {α : Type} (control : CacheControl) (l : List (Marked α)) :
    (stampLast control l).dropLast = l.dropLast := by
  rcases List.eq_nil_or_concat l with rfl | ⟨init, b, rfl⟩
  · rfl
  · rw [List.concat_eq_append, stampLast_snoc, List.dropLast_concat, List.dropLast_concat]

def ToolSchemas.stamp (schemas : ToolSchemas) (control : CacheControl) : ToolSchemas where
  list := stampLast control schemas.list
  only_last := by rw [dropLast_stampLast]; exact schemas.only_last

/-! ## The helpers -/

/-- the part of an `LLMTarget` the helpers read -/
structure LLMTarget where
  honorsCacheControl : Bool

inductive SentContent where
  | text (text : Str)
  | blocks (l : List (Marked Block))
deriving DecidableEq, Repr

structure SentMessage where
  role : Role
  content : SentContent
deriving DecidableEq, Repr

/-- the `system` parameter: a string, or a list of text blocks -/
inductive SentSystem where
  | text (text : Str)
  | blocks (l : List (Marked Str))
deriving DecidableEq, Repr

/-- a message as `to_dict` gives it -/
def ApiMessage.sent (m : ApiMessage) : SentMessage :=
  ⟨m.role, match m.content with
    | .text t => .text t
    | .blocks l => .blocks (l.map (⟨·, none⟩))⟩

section helpers
variable (settings : CacheSettings) (target : LLMTarget) (ttls : Option BreakpointTTLs)

def prepareSystemWithCaching (system : Str) : SentSystem :=
  if target.honorsCacheControl then
    .blocks [⟨system, some (cacheControl (ttls.getD (breakpointTtls settings)).leading)⟩]
  else .text system

def applyToolCaching (tools : ToolSchemas) : ToolSchemas :=
  if target.honorsCacheControl then tools.stamp (cacheControl (ttls.getD (breakpointTtls settings)).leading) else tools

/-- a user message whose content is a plain string -/
def SentMessage.isPlainUser (m : SentMessage) : Bool :=
  m.role = .user && match m.content with
    | .text _ => true
    | .blocks _ => false

/-- the loop of `apply_history_cache_breakpoint`, which runs down from the index below `n` -/
def currentTurnIdx (messages : List SentMessage) : ℕ → Option ℕ
  | 0 => none
  | idx + 1 => if messages[idx]?.any SentMessage.isPlainUser then some idx else currentTurnIdx messages idx

/-- the blocks of the anchor with a marker on the last; none for an empty content -/
def SentContent.stamped? (control : CacheControl) : SentContent → Option SentContent
  | .text content => some (.blocks [⟨.text content, some control⟩])
  | .blocks [] => none
  | .blocks (b :: l) => some (.blocks (stampLast control (b :: l)))

def applyHistoryCacheBreakpoint (messages : List SentMessage) : List SentMessage :=
  if target.honorsCacheControl then
    match currentTurnIdx messages messages.length with
    | none | some 0 => messages
    | some (idx + 1) =>
      match messages[idx]? with
      | none => messages
      | some anchor =>
        match anchor.content.stamped? (cacheControl (ttls.getD (breakpointTtls settings)).history) with
        | none => messages
        | some content => messages.set idx { anchor with content := content }
  else messages

def Block.isToolResult : Block → Bool
  | .toolResult _ _ _ => true
  | _ => false

/-- a user message whose content is a list that ends with a result -/
def SentMessage.endsInToolResult (m : SentMessage) : Bool :=
  m.role = .user && match m.content with
    | .text _ => false
    | .blocks l => l.getLast?.any (·.value.isToolResult)

def applyInTurnCacheBreakpoint (messages : List SentMessage) : List SentMessage :=
  if target.honorsCacheControl then
    match messages.getLast? with
    | none => messages
    | some last =>
      match last.content with
      | .text _ => messages
      | .blocks l =>
        if last.endsInToolResult then
          messages.set (messages.length - 1)
            { last with content := .blocks (stampLast (cacheControl (ttls.getD (breakpointTtls settings)).inTurn) l) }
        else messages
  else messages

end helpers

/-! ## Requests -/

structure Request where
  tools : Option ToolSchemas
  system : Option SentSystem
  messages : List SentMessage

/-- the request of the typed messages without breakpoints -/
def plainRequest (tools : Option ToolSchemas) (messages : List AgentMessage) : Request where
  tools := tools
  system := (messagesToMessagesApi messages).1.map .text
  messages := (messagesToMessagesApi messages).2.map ApiMessage.sent

/-- the request of `_call_llm_with_retry` -/
def buildRequest (settings : CacheSettings) (target : LLMTarget) (ttls : Option BreakpointTTLs)
    (tools : Option ToolSchemas) (messages : List AgentMessage) : Request :=
  let (system, msgDicts) := messagesToMessagesApi messages
  let msgDicts := applyHistoryCacheBreakpoint settings target ttls (msgDicts.map ApiMessage.sent)
  let msgDicts := applyInTurnCacheBreakpoint settings target ttls msgDicts
  { tools := tools.map (applyToolCaching settings target ttls)
    system := system.map (prepareSystemWithCaching settings target ttls)
    messages := msgDicts }

def SentContent.markers : SentContent → List CacheControl
  | .text _ => []
  | .blocks l => AgentLoop.markers l

def SentSystem.markers : SentSystem → List CacheControl
  | .text _ => []
  | .blocks l => AgentLoop.markers l

def messageMarkers (messages : List SentMessage) : List CacheControl := messages.flatMap (·.content.markers)

def toolMarkers (tools : Option ToolSchemas) : List CacheControl := tools.elim [] fun t => AgentLoop.markers t.list

def systemMarkers (system : Option SentSystem) : List CacheControl := system.elim [] SentSystem.markers

/-- the markers in request order: tools, system, messages -/
def Request.markers (r : Request) : List CacheControl :=
  toolMarkers r.tools ++ systemMarkers r.system ++ messageMarkers r.messages

def ToolSchemas.unmark (t : ToolSchemas) : ToolSchemas where
  list := t.list.map Marked.unmark
  only_last := by rw [← List.map_dropLast]; exact markers_unmark _

def SentContent.unmark : SentContent → SentContent
  | .text t => .text t
  | .blocks l => .blocks (l.map Marked.unmark)

def SentSystem.unmark : SentSystem → SentSystem
  | .text t => .text t
  | .blocks l => .blocks (l.map Marked.unmark)

def SentMessage.unmark (m : SentMessage) : SentMessage := { m with content := m.content.unmark }

/-- the request without its markers -/
def Request.unmark (r : Request) : Request where
  tools := r.tools.map ToolSchemas.unmark
  system := r.system.map SentSystem.unmark
  messages := r.messages.map SentMessage.unmark

/-- a single text block read as its string -/
def SentContent.read : SentContent → SentContent
  | .blocks [⟨.text t, none⟩] => .text t
  | content => content

def SentSystem.read : SentSystem → SentSystem
  | .blocks [⟨t, none⟩] => .text t
  | system => system

/-- a user's content is read; an assistant's is a list of blocks in every request -/
def SentMessage.read (m : SentMessage) : SentMessage :=
  match m.role with
  | .user => { m with content := m.content.read }
  | .assistant => m

def Request.read (r : Request) : Request :=
  { r with system := r.system.map SentSystem.read, messages := r.messages.map SentMessage.read }

/-! ## What the helpers do -/

/-- a message as `to_dict` and the results of a round give it -/
inductive Typed : SentMessage → Prop where
  | user (text : Str) : Typed ⟨.user, .text text⟩
  | results (l : List (Marked Block)) : (∀ b ∈ l, b.value.isToolResult = true) → markers l = [] → Typed ⟨.user, .blocks l⟩
  | assistant (l : List (Marked Block)) : markers l = [] → Typed ⟨.assistant, .blocks l⟩

theorem markers_fresh {α : Type} (l : List α) : markers (l.map fun a => (⟨a, none⟩ : Marked α)) = [] := by
  rw [markers, List.filterMap_eq_nil_iff]
  intro b hb
  obtain ⟨a, -, rfl⟩ := List.mem_map.1 hb
  rfl

/-- what the loop of `messages_to_messages_api` holds -/
structure ConvertsTyped (c : Converting) : Prop where
  result : ∀ m ∈ c.result, Typed (ApiMessage.sent m)
  pending : ∀ b ∈ c.pendingToolResults, b.isToolResult = true

theorem ConvertsTyped.flush {c : Converting} (h : ConvertsTyped c) : ConvertsTyped c.flush := by
  unfold Converting.flush
  split
  · exact h
  · refine ⟨?_, fun _ hb => absurd hb List.not_mem_nil⟩
    intro m hm
    rcases List.mem_append.1 hm with hm | hm
    · exact h.result m hm
    · rw [List.mem_singleton.1 hm]
      refine Typed.results _ ?_ (markers_fresh _)
      intro b hb
      obtain ⟨a, ha, rfl⟩ := List.mem_map.1 hb
      exact h.pending a ha

theorem ConvertsTyped.push {c : Converting} (h : ConvertsTyped c) {m : ApiMessage} (hm : Typed (ApiMessage.sent m)) :
    ConvertsTyped (c.push m) where
  result := by
    intro x hx
    rcases List.mem_append.1 hx with hx | hx
    · exact h.flush.result x hx
    · rwa [List.mem_singleton.1 hx]
  pending := h.flush.pending

theorem ConvertsTyped.add {c : Converting} (h : ConvertsTyped c) (m : AgentMessage) : ConvertsTyped (c.add m) := by
  cases m with
  | system content => exact ⟨h.result, h.pending⟩
  | toolResult id content isError =>
    refine ⟨h.result, ?_⟩
    intro b hb
    rcases List.mem_append.1 hb with hb | hb
    · exact h.pending b hb
    · rw [List.mem_singleton.1 hb]
      rfl
  | user content seq => exact h.push (Typed.user content)
  | assistant content toolCalls seq => exact h.push (Typed.assistant _ (markers_fresh _))

theorem typed_messages (messages : List AgentMessage) :
    ∀ m ∈ (messagesToMessagesApi messages).2.map ApiMessage.sent, Typed m := by
  have hfold : ∀ (l : List AgentMessage) (c : Converting), ConvertsTyped c → ConvertsTyped (l.foldl Converting.add c) := by
    intro l
    induction l with
    | nil => exact fun c h => h
    | cons m l ih => exact fun c h => ih _ (h.add m)
  intro m hm
  obtain ⟨a, ha, rfl⟩ := List.mem_map.1 hm
  have hstart : ConvertsTyped ⟨none, [], []⟩ := ⟨fun _ hb => absurd hb List.not_mem_nil, fun _ hb => absurd hb List.not_mem_nil⟩
  exact (hfold messages _ hstart).flush.result a ha

section specs
variable (settings : CacheSettings) (target : LLMTarget) (ttls : Option BreakpointTTLs)

/-- a message with a marker on its last block -/
inductive Stamped (control : CacheControl) : SentMessage → SentMessage → Prop where
  | text (role : Role) (text : Str) : Stamped control ⟨role, .text text⟩ ⟨role, .blocks [⟨.text text, some control⟩]⟩
  | blocks (role : Role) {l : List (Marked Block)} : l ≠ [] →
      Stamped control ⟨role, .blocks l⟩ ⟨role, .blocks (stampLast control l)⟩

theorem Typed.unmarked {m : SentMessage} (h : Typed m) : m.content.markers = [] := by
  cases h with
  | user text => rfl
  | results l hl hplain => exact hplain
  | assistant l hplain => exact hplain

theorem Stamped.markers {control : CacheControl} {m m' : SentMessage} (h : Stamped control m m') (hm : Typed m) :
    m'.content.markers = [control] := by
  cases h with
  | text role text => rfl
  | blocks role hl => exact markers_stampLast control hl hm.unmarked

theorem map_unmark_of_markers {α : Type} {l : List (Marked α)} (h : markers l = []) : l.map Marked.unmark = l := by
  refine (List.map_congr_left fun b hb => ?_).trans (List.map_id l)
  have hb := List.filterMap_eq_nil_iff.1 h b hb
  obtain ⟨value, control⟩ := b
  simp only [Marked.unmark, id_eq, Marked.mk.injEq, true_and]
  exact hb.symm

/-- a list of results is no single text -/
theorem read_results {l : List (Marked Block)} (h : ∀ b ∈ l, b.value.isToolResult = true) :
    (SentContent.blocks l).read = .blocks l := by
  unfold SentContent.read
  split
  · rename_i t heq
    cases heq
    exact absurd (h _ (List.mem_singleton.2 rfl)) Bool.false_ne_true
  · rfl

theorem Typed.unmark {m : SentMessage} (h : Typed m) : m.unmark = m := by
  cases h with
  | user text => rfl
  | results l hl hplain => rw [SentMessage.unmark, SentContent.unmark, map_unmark_of_markers hplain]
  | assistant l hplain => rw [SentMessage.unmark, SentContent.unmark, map_unmark_of_markers hplain]

theorem Typed.read {m : SentMessage} (h : Typed m) : m.read = m := by
  cases h with
  | user text => rfl
  | results l hl hplain => simp only [SentMessage.read, read_results hl]
  | assistant l hplain => rfl

/-- without its marker a stamped message is the message -/
theorem Stamped.read {control : CacheControl} {m m' : SentMessage} (h : Stamped control m m') (hm : Typed m) :
    m'.unmark.read = m := by
  cases h with
  | text role text =>
    cases hm
    rfl
  | @blocks role l hl =>
    have hunmark : SentMessage.unmark ⟨role, .blocks (stampLast control l)⟩ = SentMessage.unmark ⟨role, .blocks l⟩ := by
      rw [SentMessage.unmark, SentContent.unmark, unmark_stampLast]
      rfl
    rw [hunmark, hm.unmark, hm.read]

theorem set_append_cons {α : Type} (pre post : List α) (a b : α) :
    (pre ++ a :: post).set pre.length b = pre ++ b :: post := by
  induction pre with
  | nil => rfl
  | cons x pre ih => exact congrArg (x :: ·) ih

theorem eq_append_of_getElem? {α : Type} {l : List α} {i : ℕ} {a : α} (h : l[i]? = some a) :
    l = l.take i ++ a :: l.drop (i + 1) ∧ (l.take i).length = i := by
  obtain ⟨hi, ha⟩ := List.getElem?_eq_some_iff.1 h
  refine ⟨?_, List.length_take_of_le hi.le⟩
  rw [← ha, List.getElem_cons_drop, List.take_append_drop]

theorem currentTurnIdx_some {messages : List SentMessage} {n idx : ℕ} (hn : n ≤ messages.length)
    (h : currentTurnIdx messages n = some idx) : idx < messages.length := by
  induction n with
  | zero => cases h
  | succ n ih =>
    simp only [currentTurnIdx] at h
    split at h
    · rw [← Option.some.inj h]
      exact hn
    · exact ih (Nat.le_of_succ_le hn) h

theorem stamped_of_stamped? {control : CacheControl} {m : SentMessage} {content : SentContent}
    (h : m.content.stamped? control = some content) : Stamped control m { m with content := content } := by
  obtain ⟨role, old⟩ := m
  cases old with
  | text t =>
    cases h
    exact Stamped.text role t
  | blocks l =>
    cases l with
    | nil => cases h
    | cons b l =>
      cases h
      exact Stamped.blocks role (List.cons_ne_nil _ _)

/-- the history breakpoint is on a message before the last -/
theorem history_cases (ms : List SentMessage) :
    applyHistoryCacheBreakpoint settings target ttls ms = ms ∨
    ∃ pre anchor anchor' tail, tail ≠ [] ∧ target.honorsCacheControl = true ∧
      Stamped (cacheControl (ttls.getD (breakpointTtls settings)).history) anchor anchor' ∧
      ms = pre ++ anchor :: tail ∧ applyHistoryCacheBreakpoint settings target ttls ms = pre ++ anchor' :: tail := by
  unfold applyHistoryCacheBreakpoint
  by_cases hhonors : target.honorsCacheControl = true
  · rw [if_pos hhonors]
    cases hidx : currentTurnIdx ms ms.length with
    | none => exact Or.inl rfl
    | some turn =>
      cases turn with
      | zero => exact Or.inl rfl
      | succ idx =>
        have hlt : idx + 1 < ms.length := currentTurnIdx_some (le_refl _) hidx
        obtain ⟨anchor, hanchor⟩ : ∃ a, ms[idx]? = some a := ⟨ms[idx], List.getElem?_eq_getElem (Nat.lt_of_succ_lt hlt)⟩
        obtain ⟨hsplit, hlen⟩ := eq_append_of_getElem? hanchor
        have htail : ms.drop (idx + 1) ≠ [] := fun h => absurd (List.drop_eq_nil_iff.1 h) (not_le_of_gt hlt)
        simp only [hanchor]
        cases hcontent : anchor.content.stamped? (cacheControl (ttls.getD (breakpointTtls settings)).history) with
        | none => exact Or.inl rfl
        | some content =>
          refine Or.inr ⟨_, anchor, _, _, htail, hhonors, stamped_of_stamped? hcontent, hsplit, ?_⟩
          have hset := set_append_cons (ms.take idx) (ms.drop (idx + 1)) anchor { anchor with content := content }
          rwa [hlen, ← hsplit] at hset
  · rw [if_neg hhonors]
    exact Or.inl rfl

/-- the in-turn breakpoint is on the last message, whatever is before it -/
theorem inTurn_cases (m : SentMessage) :
    (∀ init, applyInTurnCacheBreakpoint settings target ttls (init ++ [m]) = init ++ [m]) ∨
    ∃ m', target.honorsCacheControl = true ∧ Stamped (cacheControl (ttls.getD (breakpointTtls settings)).inTurn) m m' ∧
      ∀ init, applyInTurnCacheBreakpoint settings target ttls (init ++ [m]) = init ++ [m'] := by
  obtain ⟨role, content⟩ := m
  by_cases hhonors : target.honorsCacheControl = true
  · cases content with
    | text t =>
      left
      intro init
      have hlast : (init ++ [⟨role, .text t⟩] : List SentMessage).getLast? = some ⟨role, .text t⟩ := List.getLast?_concat
      simp only [applyInTurnCacheBreakpoint, if_pos hhonors, hlast]
    | blocks l =>
      by_cases hends : SentMessage.endsInToolResult ⟨role, .blocks l⟩ = true
      · have hl : l ≠ [] := by
          rintro rfl
          simp [SentMessage.endsInToolResult] at hends
        refine Or.inr ⟨_, hhonors, Stamped.blocks role hl, ?_⟩
        intro init
        have hlast : (init ++ [⟨role, .blocks l⟩] : List SentMessage).getLast? = some ⟨role, .blocks l⟩ :=
          List.getLast?_concat
        have hlen : (init ++ [⟨role, .blocks l⟩] : List SentMessage).length - 1 = init.length := by simp
        simp only [applyInTurnCacheBreakpoint, if_pos hhonors, hlast, if_pos hends, hlen]
        exact set_append_cons init [] _ _
      · left
        intro init
        have hlast : (init ++ [⟨role, .blocks l⟩] : List SentMessage).getLast? = some ⟨role, .blocks l⟩ :=
          List.getLast?_concat
        simp only [applyInTurnCacheBreakpoint, if_pos hhonors, hlast, if_neg hends]
  · left
    intro init
    rw [applyInTurnCacheBreakpoint, if_neg hhonors]

theorem inTurn_nil : applyInTurnCacheBreakpoint settings target ttls [] = [] := by
  unfold applyInTurnCacheBreakpoint
  split <;> rfl

theorem inTurn_append (pre : List SentMessage) {ms : List SentMessage} (hms : ms ≠ []) :
    applyInTurnCacheBreakpoint settings target ttls (pre ++ ms) = pre ++ applyInTurnCacheBreakpoint settings target ttls ms := by
  rcases List.eq_nil_or_concat ms with rfl | ⟨init, m, rfl⟩
  · exact absurd rfl hms
  · rw [List.concat_eq_append, ← List.append_assoc]
    rcases inTurn_cases settings target ttls m with hsame | ⟨m', -, -, hstamp⟩
    · rw [hsame, hsame, List.append_assoc]
    · rw [hstamp, hstamp, List.append_assoc]

theorem messageMarkers_append (l m : List SentMessage) : messageMarkers (l ++ m) = messageMarkers l ++ messageMarkers m :=
  List.flatMap_append

theorem messageMarkers_typed {ms : List SentMessage} (h : ∀ m ∈ ms, Typed m) : messageMarkers ms = [] :=
  List.flatMap_eq_nil_iff.2 fun m hm => (h m hm).unmarked

/-- one helper's markers on typed messages: at most its own -/
theorem inTurn_markers {ms : List SentMessage} (h : ∀ m ∈ ms, Typed m) :
    messageMarkers (applyInTurnCacheBreakpoint settings target ttls ms) <+
      [cacheControl (ttls.getD (breakpointTtls settings)).inTurn] := by
  rcases List.eq_nil_or_concat ms with rfl | ⟨init, m, rfl⟩
  · rw [inTurn_nil]
    exact List.nil_sublist _
  · rw [List.concat_eq_append] at h ⊢
    rcases inTurn_cases settings target ttls m with hsame | ⟨m', -, hstamped, hstamp⟩
    · rw [hsame, messageMarkers_typed h]
      exact List.nil_sublist _
    · rw [hstamp, messageMarkers_append, messageMarkers_typed fun x hx => h x (List.mem_append_left _ hx)]
      have hmarkers := hstamped.markers (h m (List.mem_append_right _ (List.mem_singleton.2 rfl)))
      simp only [messageMarkers, List.flatMap_cons, List.flatMap_nil, hmarkers]
      exact List.Sublist.refl _

theorem history_markers {ms : List SentMessage} (h : ∀ m ∈ ms, Typed m) :
    messageMarkers (applyHistoryCacheBreakpoint settings target ttls ms) <+
      [cacheControl (ttls.getD (breakpointTtls settings)).history] := by
  rcases history_cases settings target ttls ms with hsame | ⟨pre, anchor, anchor', tail, -, -, hstamped, rfl, hstamp⟩
  · rw [hsame, messageMarkers_typed h]
    exact List.nil_sublist _
  · have hpre := messageMarkers_typed fun x hx => h x (List.mem_append_left _ hx)
    have htail := messageMarkers_typed fun x hx => h x (List.mem_append_right _ (List.mem_cons_of_mem _ hx))
    have hmarkers := hstamped.markers (h anchor (List.mem_append_right _ List.mem_cons_self))
    rw [hstamp, messageMarkers_append, hpre]
    rw [messageMarkers] at htail ⊢
    rw [List.flatMap_cons, hmarkers, htail]
    exact List.Sublist.refl _

/-- the history breakpoint keeps its block to itself: what the in-turn breakpoint adds to it is what it adds alone -/
theorem both_markers {ms : List SentMessage} (h : ∀ m ∈ ms, Typed m) :
    messageMarkers (applyInTurnCacheBreakpoint settings target ttls (applyHistoryCacheBreakpoint settings target ttls ms)) =
      messageMarkers (applyHistoryCacheBreakpoint settings target ttls ms) ++
        messageMarkers (applyInTurnCacheBreakpoint settings target ttls ms) := by
  rcases history_cases settings target ttls ms with hsame | ⟨pre, anchor, anchor', tail, htail, -, -, rfl, hstamp⟩
  · rw [hsame, messageMarkers_typed h, List.nil_append]
  · have hafter : ∀ a, applyInTurnCacheBreakpoint settings target ttls (pre ++ a :: tail) =
        (pre ++ [a]) ++ applyInTurnCacheBreakpoint settings target ttls tail := by
      intro a
      rw [← inTurn_append settings target ttls _ htail, List.append_assoc, List.singleton_append]
    have hbefore : messageMarkers (pre ++ [anchor]) = [] := by
      apply messageMarkers_typed
      intro x hx
      rcases List.mem_append.1 hx with hx | hx
      · exact h x (List.mem_append_left _ hx)
      · exact h x (List.mem_append_right _ (List.mem_singleton.1 hx ▸ List.mem_cons_self))
    have hrest : messageMarkers tail = [] :=
      messageMarkers_typed fun x hx => h x (List.mem_append_right _ (List.mem_cons_of_mem _ hx))
    have hshow : messageMarkers (pre ++ anchor' :: tail) = messageMarkers (pre ++ [anchor']) := by
      rw [← List.singleton_append, ← List.append_assoc, messageMarkers_append, hrest, List.append_nil]
    rw [hstamp, hafter, hafter, messageMarkers_append, messageMarkers_append _ (applyInTurnCacheBreakpoint _ _ _ tail),
      hbefore, List.nil_append, hshow]

/-- a message without its marker, a user's single text read as its string -/
def SentMessage.plain (m : SentMessage) : SentMessage := m.unmark.read

theorem plain_typed {ms : List SentMessage} (h : ∀ m ∈ ms, Typed m) : ms.map SentMessage.plain = ms :=
  (List.map_congr_left fun m hm => by rw [SentMessage.plain, (h m hm).unmark, (h m hm).read, id]).trans (List.map_id ms)

theorem inTurn_plain {ms : List SentMessage} (h : ∀ m ∈ ms, Typed m) :
    (applyInTurnCacheBreakpoint settings target ttls ms).map SentMessage.plain = ms := by
  rcases List.eq_nil_or_concat ms with rfl | ⟨init, m, rfl⟩
  · rw [inTurn_nil]
    rfl
  · rw [List.concat_eq_append] at h ⊢
    rcases inTurn_cases settings target ttls m with hsame | ⟨m', -, hstamped, hstamp⟩
    · rw [hsame, plain_typed h]
    · have hm : m'.plain = m := hstamped.read (h m (List.mem_append_right _ (List.mem_singleton.2 rfl)))
      rw [hstamp, List.map_append, plain_typed fun x hx => h x (List.mem_append_left _ hx), List.map_singleton, hm]

theorem both_plain {ms : List SentMessage} (h : ∀ m ∈ ms, Typed m) :
    (applyInTurnCacheBreakpoint settings target ttls (applyHistoryCacheBreakpoint settings target ttls ms)).map
      SentMessage.plain = ms := by
  rcases history_cases settings target ttls ms with hsame | ⟨pre, anchor, anchor', tail, htail, -, hstamped, rfl, hstamp⟩
  · rw [hsame, inTurn_plain settings target ttls h]
  · have hanchor : anchor'.plain = anchor := hstamped.read (h anchor (List.mem_append_right _ List.mem_cons_self))
    have hrest : (applyInTurnCacheBreakpoint settings target ttls tail).map SentMessage.plain = tail :=
      inTurn_plain settings target ttls fun x hx => h x (List.mem_append_right _ (List.mem_cons_of_mem _ hx))
    have hpre : pre.map SentMessage.plain = pre := plain_typed fun x hx => h x (List.mem_append_left _ hx)
    rw [hstamp, ← List.singleton_append, ← List.append_assoc, inTurn_append settings target ttls _ htail, List.map_append,
      List.map_append, hpre, hrest, List.map_singleton, hanchor, List.append_assoc, List.singleton_append]

theorem toolMarkers_stamp (tools : Option ToolSchemas) (hhonors : target.honorsCacheControl = true) :
    toolMarkers (tools.map (applyToolCaching settings target ttls)) <+
      [cacheControl (ttls.getD (breakpointTtls settings)).leading] := by
  cases tools with
  | none => exact List.nil_sublist _
  | some tools =>
    obtain ⟨l, honly⟩ := tools
    simp only [Option.map_some, toolMarkers, Option.elim_some, applyToolCaching, if_pos hhonors, ToolSchemas.stamp]
    rcases List.eq_nil_or_concat l with rfl | ⟨init, b, rfl⟩
    · exact List.nil_sublist _
    · rw [List.concat_eq_append, List.dropLast_concat] at honly
      rw [List.concat_eq_append, stampLast_snoc, markers_append, honly]
      exact List.Sublist.refl _

theorem systemMarkers_prepare (system : Option Str) (hhonors : target.honorsCacheControl = true) :
    systemMarkers (system.map (prepareSystemWithCaching settings target ttls)) <+
      [cacheControl (ttls.getD (breakpointTtls settings)).leading] := by
  cases system with
  | none => exact List.nil_sublist _
  | some system =>
    simp only [Option.map_some, systemMarkers, Option.elim_some, prepareSystemWithCaching, if_pos hhonors]
    exact List.Sublist.refl _

/-- a request's markers are some of the four breakpoints, in their order -/
theorem stamps_sublist (tools : Option ToolSchemas) (messages : List AgentMessage)
    (hhonors : target.honorsCacheControl = true) :
    (buildRequest settings target ttls tools messages).markers <+
      [cacheControl (ttls.getD (breakpointTtls settings)).leading, cacheControl (ttls.getD (breakpointTtls settings)).leading,
        cacheControl (ttls.getD (breakpointTtls settings)).history, cacheControl (ttls.getD (breakpointTtls settings)).inTurn] := by
  have htyped := typed_messages messages
  have hmessages := both_markers settings target ttls htyped
  simp only [Request.markers, buildRequest, hmessages, List.append_assoc]
  exact (toolMarkers_stamp settings target ttls tools hhonors).append
    ((systemMarkers_prepare settings target ttls _ hhonors).append
      ((history_markers settings target ttls htyped).append (inTurn_markers settings target ttls htyped)))

/-- a target that honours no markers gets the request as it is -/
theorem build_not_honored (tools : Option ToolSchemas) (messages : List AgentMessage)
    (hhonors : target.honorsCacheControl = false) :
    buildRequest settings target ttls tools messages = plainRequest tools messages := by
  have htools : applyToolCaching settings target ttls = id := by
    funext t
    rw [applyToolCaching, if_neg (Bool.eq_false_iff.1 hhonors), id]
  have hsystem : prepareSystemWithCaching settings target ttls = .text := by
    funext t
    rw [prepareSystemWithCaching, if_neg (Bool.eq_false_iff.1 hhonors)]
  simp only [buildRequest, plainRequest, applyHistoryCacheBreakpoint, applyInTurnCacheBreakpoint,
    if_neg (Bool.eq_false_iff.1 hhonors), htools, hsystem, Option.map_id, id]

theorem ToolSchemas.ext_list {t u : ToolSchemas} (h : t.list = u.list) : t = u := by
  cases t
  cases u
  cases h
  rfl

theorem unmark_applyToolCaching (tools : ToolSchemas) :
    (applyToolCaching settings target ttls tools).unmark = tools.unmark := by
  unfold applyToolCaching
  split
  · exact ToolSchemas.ext_list (unmark_stampLast _ _)
  · rfl

theorem read_prepare (system : Str) : (prepareSystemWithCaching settings target ttls system).unmark.read = .text system := by
  unfold prepareSystemWithCaching
  split <;> rfl

/-- without its markers, a single text read as its string, the request is the unmarked one -/
theorem build_plain (tools : Option ToolSchemas) (messages : List AgentMessage) :
    (buildRequest settings target ttls tools messages).unmark.read = (plainRequest tools messages).unmark := by
  have htyped := typed_messages messages
  have hmessages := both_plain settings target ttls htyped
  have hunmark := (List.map_congr_left fun m hm => (htyped m hm).unmark).trans (List.map_id _)
  have htools : ToolSchemas.unmark ∘ applyToolCaching settings target ttls = ToolSchemas.unmark :=
    funext (unmark_applyToolCaching settings target ttls)
  have hsystem : SentSystem.read ∘ SentSystem.unmark ∘ prepareSystemWithCaching settings target ttls = .text :=
    funext (read_prepare settings target ttls)
  have hsent : ((applyInTurnCacheBreakpoint settings target ttls (applyHistoryCacheBreakpoint settings target ttls
      ((messagesToMessagesApi messages).2.map ApiMessage.sent))).map SentMessage.unmark).map SentMessage.read =
      (messagesToMessagesApi messages).2.map ApiMessage.sent := by
    rw [List.map_map]
    exact hmessages
  have hread : SentSystem.unmark ∘ SentSystem.text = SentSystem.text := rfl
  simp only [Request.read, Request.unmark, buildRequest, plainRequest, Option.map_map, htools, hsystem, hunmark, hsent, hread]

end specs

/-! ## Legal breakpoints -/

/-- what an API that honours markers accepts, and what the helpers may change -/
structure Legal (r bare : Request) (own : List CacheControl) : Prop where
  atMostFour : r.markers.length ≤ 4
  descending : r.markers.Pairwise fun a b => b.lifetime ≤ a.lifetime
  /-- no block is stamped twice: every marker the helpers place on their own is in the request -/
  ownBlocks : r.markers = own
  bare : r.unmark.read = bare.unmark

/-- the markers that each helper places on the request without the others' -/
def ownMarkers (settings : CacheSettings) (target : LLMTarget) (ttls : Option BreakpointTTLs) (bare : Request)
    (system : Option Str) : List CacheControl :=
  toolMarkers (bare.tools.map (applyToolCaching settings target ttls)) ++
    (systemMarkers (system.map (prepareSystemWithCaching settings target ttls)) ++
      (messageMarkers (applyHistoryCacheBreakpoint settings target ttls bare.messages) ++
        messageMarkers (applyInTurnCacheBreakpoint settings target ttls bare.messages)))

theorem length_toolMarkers_le (tools : Option ToolSchemas) : (toolMarkers tools).length ≤ 1 := by
  cases tools with
  | none => exact Nat.zero_le 1
  | some tools =>
    obtain ⟨l, honly⟩ := tools
    rcases List.eq_nil_or_concat l with rfl | ⟨init, b, rfl⟩
    · exact Nat.zero_le 1
    · rw [List.concat_eq_append, List.dropLast_concat] at honly
      simp only [toolMarkers, Option.elim_some, List.concat_eq_append, markers_append, honly, List.nil_append]
      exact List.length_filterMap_le _ _

/-- breakpoints whose lifetimes descend are legal -/
theorem legal_of_descending (settings : CacheSettings) (target : LLMTarget) (ttls : Option BreakpointTTLs)
    (tools : Option ToolSchemas) (messages : List AgentMessage) (h : (ttls.getD (breakpointTtls settings)).Descending) :
    Legal (buildRequest settings target ttls tools messages) (plainRequest tools messages)
      (ownMarkers settings target ttls (plainRequest tools messages) (messagesToMessagesApi messages).1) := by
  have hbare := build_plain settings target ttls tools messages
  have hown : (buildRequest settings target ttls tools messages).markers =
      ownMarkers settings target ttls (plainRequest tools messages) (messagesToMessagesApi messages).1 := by
    simp only [Request.markers, buildRequest, both_markers settings target ttls (typed_messages messages), List.append_assoc]
    rfl
  by_cases hhonors : target.honorsCacheControl = true
  · have hsub := stamps_sublist settings target ttls tools messages hhonors
    refine ⟨hsub.length_le, List.Pairwise.sublist hsub ?_, hown, hbare⟩
    have hhistory := h.1
    have hinTurn := h.2
    have hinTurn' := hinTurn.trans hhistory
    simp [List.pairwise_cons, hhistory, hinTurn, hinTurn']
  · have hplain := build_not_honored settings target ttls tools messages (Bool.eq_false_iff.2 hhonors)
    have hmarkers : (plainRequest tools messages).markers = toolMarkers tools := by
      have hmessages := messageMarkers_typed (typed_messages messages)
      have hsystem : systemMarkers ((messagesToMessagesApi messages).1.map SentSystem.text) = [] := by
        cases (messagesToMessagesApi messages).1 <;> rfl
      simp only [Request.markers, plainRequest, hmessages, hsystem, List.append_nil]
    have hle : (buildRequest settings target ttls tools messages).markers.length ≤ 1 := by
      rw [hplain, hmarkers]
      exact length_toolMarkers_le tools
    refine ⟨hle.trans (by decide), ?_, hown, hbare⟩
    generalize (buildRequest settings target ttls tools messages).markers = l at hle
    rcases l with _ | ⟨c, _ | ⟨d, l⟩⟩
    · exact List.Pairwise.nil
    · exact List.pairwise_singleton _ _
    · simp at hle

/-- **Legal breakpoints.** For every list of messages, every list of tools with whatever schemas an earlier round left
stamped, and every setting of the lifetimes: at most four markers, lifetimes that never increase, no block stamped twice,
the unmarked request behind the markers, and nothing changed for a target that does not honour them. -/
theorem breakpoints_legal (settings : CacheSettings) (target : LLMTarget) (tools : List ToolSchema)
    (cached : Option ToolSchemas) (messages : List AgentMessage) :
    Legal (buildRequest settings target none (getOrBuildToolSchemas tools cached) messages)
      (plainRequest (getOrBuildToolSchemas tools cached) messages)
      (ownMarkers settings target none (plainRequest (getOrBuildToolSchemas tools cached) messages)
        (messagesToMessagesApi messages).1) ∧
    (target.honorsCacheControl = false →
      buildRequest settings target none (getOrBuildToolSchemas tools cached) messages =
        plainRequest (getOrBuildToolSchemas tools cached) messages) :=
  ⟨legal_of_descending settings target none _ messages (descending_breakpointTtls settings),
    build_not_honored settings target none _ messages⟩

end Clawbolt.AgentLoop
